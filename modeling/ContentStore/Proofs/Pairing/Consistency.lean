import ContentStore.Proofs.Pairing.Fields
import ContentStore.Proofs.Pairing.Repairs
import Mathlib.Logic.Relation

/-!
# Pairs stay consistent

Items with well paired schemas are looked at apart from the store, as a map in
which saving an item replaces it.  The map is consistent if every item that is
held in a two-way field is another item of the field's target schema and holds
the first one in the mirror.  A write of an item followed by the repairs of its
partners keeps the map consistent, and so does a removal after the partners have
let go (`consistent_step`), in whatever way the partners coincide.  Nothing but
the input is restricted: every two-way reference in it is empty, or a single
reference to another stored item of the target schema (`Admissible`).
-/

namespace ContentStore.Pairing

variable {schemas : List Schema} {M M' : ItemId → Option Item}

/-- Every item held in a two-way field is another stored item of the target
schema that holds back. -/
def Consistent (schemas : List Schema) (M : ItemId → Option Item) : Prop :=
  ∀ x it, M x = some it → ∀ S ∈ schemas, it.schema = S.id → ∀ F ∈ S.fields, ∀ g,
    F.corresponding? = some g → ∀ y, it.reference? F.id = some y →
      y ≠ x ∧ ∃ other, M y = some other ∧ F.into? = some other.schema ∧
        other.reference? g = some x

/-- The schema that a field points into, among the given ones. -/
def schemaOf (schemas : List Schema) (F : Field) : Option Schema :=
  F.target?.bind fun t => schemas.find? fun s => s.id == t.2

/-- New values for an item: a two-way reference is empty, or a single reference
to another stored item of the target schema. -/
def Admissible (M : ItemId → Option Item) (S : Schema) (x : ItemId) (values : List ItemField) :
    Prop :=
  ∀ v ∈ values, ∀ F ∈ S.fields, F.isTwoWay → v.slot = ⟨F.id, none⟩ →
    v.value.isEmpty ∨ ∃ y other, v.value = .single (.reference y) ∧ y ≠ x ∧
      M y = some other ∧ F.into? = some other.schema

/-- `it` is a new item or a stored one with new values merged in; `old` is the
item as it was stored. -/
inductive Written (M : ItemId → Option Item) (S : Schema) : Option Item → Item → Prop
  | new {it : Item} {values : List ItemField} (hnew : M it.id = none) (hempty : it.fields = [])
      (hschema : it.schema = S.id) (hvalues : Admissible M S it.id values) :
      Written M S none (it.update values)
  | stored {it : Item} {values : List ItemField} (hstored : M it.id = some it)
      (hschema : it.schema = S.id) (hvalues : Admissible M S it.id values) :
      Written M S (some it) (it.update values)

/-- A written item is stored and the repairs of its partners are, or an item
goes after its partners have let go of it. -/
inductive Step (schemas : List Schema) : (ItemId → Option Item) → (ItemId → Option Item) → Prop
  | write {M : ItemId → Option Item} {S : Schema} {old : Option Item} {it : Item}
      {followers : List Item} (hS : S ∈ schemas) (hwritten : Written M S old it)
      (hrepairs : repairs (put M it) S (schemaOf schemas) it old = .ok followers) :
      Step schemas M (putAll (put M it) followers)
  | delete {M : ItemId → Option Item} {S : Schema} {it : Item} (hS : S ∈ schemas)
      (hstored : M it.id = some it) (hschema : it.schema = S.id) :
      Step schemas M (without (putAll M (detachments M S it)) it.id)

/-! ## Consistent maps are linked graphs -/

/-- The field belongs to the schema of the item. -/
def Owns (schemas : List Schema) (M : ItemId → Option Item) (x : ItemId) (f : FieldId) : Prop :=
  ∃ it, M x = some it ∧ ∃ S ∈ schemas, it.schema = S.id ∧ ∃ F ∈ S.fields, F.id = f

/-- The graph of a map from which nothing has gone. -/
def IsLinked (schemas : List Schema) (M : ItemId → Option Item) : Prop :=
  Linked (Mates schemas) (Owns schemas M) (fun _ => False) (edges M)

/-- Items that are consistent with well-paired schemas form a linked graph. -/
theorem isLinked_of_consistent (hw : WellPaired schemas) (hM : Consistent schemas M) :
    IsLinked schemas M := by
  refine Linked.of_back ?_
  intro x y _ g hex hex' hxy
  obtain ⟨S, hS, F, hF, rfl, hg⟩ := hex
  obtain ⟨it, hit, S', hS', hschema, F', hF', hid⟩ := hex'
  obtain ⟨rfl, rfl⟩ := hw.field_eq hS' hS hF' hF hid
  rw [edges_of_some hit] at hxy
  obtain ⟨hne, other, hother, hinto, hback⟩ := hM x it hit S' hS hschema F' hF g hg y hxy
  obtain ⟨T, hT, G, hG, hGid, hinto', -, -, -⟩ := hw.mirrored S' hS F' hF g hg
  have hT' : other.schema = T.id := Option.some.inj (hinto.symm.trans hinto')
  exact ⟨hne, ⟨other, hother, T, hT, hT', G, hG, hGid⟩, by rw [edges_of_some hother, hback]⟩

/-- The other way round, a linked graph makes its items consistent. -/
theorem consistent_of_isLinked (hw : WellPaired schemas) (hM : IsLinked schemas M) :
    Consistent schemas M := by
  intro x it hit S hS hschema F hF g hg y hxy
  have hmates : Mates schemas F.id g := ⟨S, hS, F, hF, rfl, hg⟩
  obtain ⟨hne, hgone | ⟨⟨other, hother, T, hT, hT', G, hG, hGid⟩, hback⟩⟩ :=
    hM.back hmates ⟨it, hit, S, hS, hschema, F, hF, rfl⟩ ((edges_of_some hit F.id).trans hxy)
  · exact hgone.elim
  · obtain ⟨T', hT'', G', hG', hGid', hinto, -, -, -⟩ := hw.mirrored S hS F hF g hg
    obtain ⟨rfl, -⟩ := hw.field_eq hT hT'' hG hG' (hGid.trans hGid'.symm)
    rw [edges_of_some hother] at hback
    exact ⟨hne, other, hother, by rw [hinto, hT'], hback⟩

/-! ## Writing -/

section Write

variable {S : Schema} {old : Option Item} {it : Item}

theorem Written.schema (h : Written M S old it) : it.schema = S.id := by
  cases h with
  | new _ _ hschema _ => exact hschema
  | stored _ hschema _ => exact hschema

theorem Written.old_eq (h : Written M S old it) : M it.id = old := by
  cases h with
  | new hnew _ _ _ => exact hnew
  | stored hstored _ _ => exact hstored

theorem Written.old_schema (h : Written M S old it) {o : Item} (ho : old = some o) :
    o.schema = S.id := by
  cases h with
  | new _ _ _ _ => cases ho
  | stored _ hschema _ =>
    cases ho
    exact hschema

/-- An admissible value refers to nothing, or to another item of the target
schema. -/
theorem Admissible.partner {x : ItemId} {values : List ItemField} (h : Admissible M S x values)
    {F : Field} {v : ItemField} {y : ItemId} (hF : F ∈ S.fields) (htwo : F.isTwoWay)
    (hv : v ∈ values) (hslot : v.slot = ⟨F.id, none⟩)
    (hy : v.value.first?.bind Value.reference? = some y) :
    y ≠ x ∧ ∃ other, M y = some other ∧ F.into? = some other.schema := by
  rcases h v hv F hF htwo hslot with hempty | ⟨y', other, hvalue, hne, hother, hinto⟩
  · -- a reference is never empty
    obtain ⟨e, he, hey⟩ := Option.bind_eq_some_iff.mp hy
    have hmem : e ∈ v.value.elements := List.mem_of_mem_head? he
    have := List.all_eq_true.mp hempty e hmem
    cases e <;> simp_all [Value.isEmpty, Value.reference?]
  · rw [hvalue] at hy
    cases hy
    exact ⟨hne, other, hother, hinto⟩

/-- The partners that a written item did not have before are other stored items
of the target schema. -/
theorem Written.partner (h : Written M S old it) {F : Field} {y : ItemId} (hF : F ∈ S.fields)
    (htwo : F.isTwoWay) (hy : it.reference? F.id = some y) (hchanged : held old F.id ≠ some y) :
    y ≠ it.id ∧ ∃ other, M y = some other ∧ F.into? = some other.schema := by
  have hmerged : ∀ (it : Item) (values : List ItemField), Admissible M S it.id values →
      (it.update values).reference? F.id = some y → it.reference? F.id = some y ∨
        (y ≠ it.id ∧ ∃ other, M y = some other ∧ F.into? = some other.schema) := by
    intro it values hvalues hy
    unfold Item.reference? at hy ⊢
    rw [Item.field?_update] at hy
    cases hv : valueAt? values.reverse ⟨F.id, none⟩ with
    | none =>
      rw [hv, Option.none_or] at hy
      exact .inl hy
    | some v =>
      rw [hv] at hy
      exact .inr (hvalues.partner hF htwo (List.mem_reverse.mp (mem_of_valueAt? hv))
        (slot_of_valueAt? hv) hy)
  cases h with
  | new hnew hempty hschema hvalues =>
    rcases hmerged _ _ hvalues hy with hold | hpartner
    · simp [Item.reference?, Item.field?, hempty, valueAt?] at hold
    · exact hpartner
  | stored hstored hschema hvalues =>
    rcases hmerged _ _ hvalues hy with hold | hpartner
    · exact (hchanged hold).elim
    · exact hpartner

/-- Saving the repaired partners gives the map that the repairs worked on. -/
theorem putAll_tidy {L : ItemId → Option Item} {edits : Edits} {paired : ItemId → FieldId → Prop}
    {x : ItemId} (hkeyed : Keyed L) (h : Edits.Tidy paired L x edits) :
    putAll L (edits.map Prod.snd) = current L edits := by
  funext z
  have hput : putAll L ((edits.map Prod.snd).map id) z = ((edits.lookup z).map id).or (L z) :=
    h.putAll_eq hkeyed (fun _ => rfl) z
  rwa [List.map_id, Option.map_id] at hput

/-- Repaired partners keep their ids and schemas. -/
theorem keyed_current {L : ItemId → Option Item} {edits : Edits} {paired : ItemId → FieldId → Prop}
    {x : ItemId} (hkeyed : Keyed L) (h : Edits.Tidy paired L x edits) :
    Keyed (current L edits) := by
  intro z o ho
  obtain ⟨o', ho', htrails⟩ := h.current ho
  exact htrails.id.trans (hkeyed z o' ho')

theorem owns_current_iff {L : ItemId → Option Item} {edits : Edits}
    {paired : ItemId → FieldId → Prop} {x z : ItemId} {f : FieldId}
    (h : Edits.Tidy paired L x edits) :
    Owns schemas (current L edits) z f ↔ Owns schemas L z f := by
  constructor
  · intro hex
    obtain ⟨o, ho, hS⟩ := hex
    obtain ⟨o', ho', htrails⟩ := h.current ho
    rw [htrails.schema] at hS
    exact ⟨o', ho', hS⟩
  · intro hex
    obtain ⟨o, ho, hS⟩ := hex
    obtain ⟨o', ho'⟩ := isSome_current edits (by rw [ho]; rfl : (L z).isSome)
    obtain ⟨o'', ho'', htrails⟩ := h.current ho'
    obtain rfl := Option.some.inj (ho.symm.trans ho'')
    exact ⟨o', ho', by rwa [htrails.schema]⟩

/-- An item of a well-paired schema owns the fields of this schema. -/
theorem owns_iff (hw : WellPaired schemas) {x : ItemId} {o : Item} (ho : M x = some o)
    (hS : S ∈ schemas) (hschema : o.schema = S.id) (f : FieldId) :
    Owns schemas M x f ↔ ∃ F ∈ S.fields, F.id = f := by
  constructor
  · intro hex
    obtain ⟨o', ho', T, hT, hoT, hF⟩ := hex
    obtain rfl := Option.some.inj (ho.symm.trans ho')
    rwa [hw.schema_eq hS hT (hschema.symm.trans hoT)]
  · intro hF
    exact ⟨o, ho, S, hS, hschema, hF⟩

/-- Read with the paired fields of the written item as they were before, the map
is linked before any repair. -/
theorem linked_before (hw : WellPaired schemas) (hM : IsLinked schemas M) (hS : S ∈ schemas)
    (h : Written M S old it) :
    Linked (Mates schemas) (Owns schemas (put M it)) (fun _ => False)
      ((edges (current (put M it) [])).withRow it.id (pending S.referenceFields it old)) := by
  refine Linked.congr hw.mirrored_mates hM ?_ fun _ _ _ h => h
  intro x y f g hfg
  by_cases hx : x = it.id
  · subst hx
    rw [owns_iff hw (put_self M it) hS h.schema, withRow_self]
    have hpending : ∀ F ∈ S.fields, F.id = f → pending S.referenceFields it old f = held old f := by
      intro F hF hid
      obtain ⟨hmem, hg⟩ := mem_fields_of_mates hw hS hfg hF hid
      rw [pending, if_pos]
      rw [← hid]
      exact List.mem_map_of_mem (List.mem_filter.mpr ⟨hmem, by rw [Field.isTwoWay, hg]; rfl⟩)
    cases hold : old with
    | none =>
      have hnone : M it.id = none := h.old_eq.trans hold
      constructor
      · intro hex
        obtain ⟨⟨F, hF, hid⟩, hy⟩ := hex
        rw [← hold, hpending F hF hid, hold] at hy
        cases hy
      · intro hex
        obtain ⟨⟨o, ho, -⟩, -⟩ := hex
        rw [hnone] at ho
        cases ho
    | some o =>
      have hsome : M it.id = some o := h.old_eq.trans hold
      rw [owns_iff hw hsome hS (h.old_schema hold), edges_of_some hsome]
      refine and_congr_right ?_
      intro hex
      obtain ⟨F, hF, hid⟩ := hex
      rw [← hold, hpending F hF hid, hold]
      rfl
  · have hput : put M it x = M x := put_other M hx
    rw [withRow_other hx]
    simp only [Owns, edges, current, List.lookup_nil, Option.none_or, hput]

/-- **A write keeps the map consistent.** -/
theorem isLinked_write (hw : WellPaired schemas) (hkeyed : Keyed M) (hM : IsLinked schemas M)
    (hS : S ∈ schemas) (h : Written M S old it) {followers : List Item}
    (hrepairs : repairs (put M it) S (schemaOf schemas) it old = .ok followers) :
    Keyed (putAll (put M it) followers) ∧ IsLinked schemas (putAll (put M it) followers) := by
  have hm := hw.mirrored_mates
  have hL := keyed_put hkeyed it
  obtain ⟨edits, hedits, rfl⟩ := edits_of_repairs hrepairs
  -- the two ends of a reference field of the written item
  have hends : ∀ F ∈ S.referenceFields, ∀ g, F.corresponding? = some g →
      Mates schemas F.id g ∧ Owns schemas (put M it) it.id F.id := by
    intro F hF g hg
    obtain ⟨hF, -⟩ := Schema.mem_referenceFields.mp hF
    exact ⟨⟨S, hS, F, hF, rfl, hg⟩, it, put_self M it, S, hS, h.schema, F, hF, rfl⟩
  have hnew : ∀ F ∈ S.referenceFields, ∀ g, F.corresponding? = some g → ∀ y,
      it.reference? F.id = some y → held old F.id ≠ some y →
      y ≠ it.id ∧ ¬ False ∧ Owns schemas (put M it) y g ∧ (put M it y).isSome := by
    intro F hF g hg y hy hchanged
    obtain ⟨hF, -⟩ := Schema.mem_referenceFields.mp hF
    have htwo : F.isTwoWay := by rw [Field.isTwoWay, hg]; rfl
    obtain ⟨hne, other, hother, hinto⟩ := h.partner hF htwo hy hchanged
    have hput : put M it y = some other := (put_other M hne).trans hother
    obtain ⟨T, hT, G, hG, hGid, hinto', -, -, -⟩ := hw.mirrored S hS F hF g hg
    have hT' : other.schema = T.id := Option.some.inj (hinto.symm.trans hinto')
    exact ⟨hne, fun h => h, ⟨other, hput, T, hT, hT', G, hG, hGid⟩, by rw [hput]; rfl⟩
  have htidy : Edits.Tidy (fun _ _ => True) (put M it) it.id edits :=
    Edits.Tidy.nil.repairs (fun _ _ _ _ _ _ _ => trivial) hedits
  have hafter := linked_repairs hm (fun h => h) (hw.referenceFields_distinct hS) hends hnew
    (linked_before hw hM hS h) hedits
  rw [putAll_tidy hL htidy]
  refine ⟨keyed_current hL htidy, Linked.congr hm hafter ?_ fun _ _ _ h => h⟩
  intro x y f g hfg
  rw [owns_current_iff htidy]
  by_cases hx : x = it.id
  · subst hx
    rw [withRow_self, edges_of_some (htidy.current_self.trans (put_self M it))]
  · rw [withRow_other hx]

end Write

/-! ## Removing -/

/-- **A removal keeps the map consistent.** -/
theorem isLinked_delete {S : Schema} {it : Item} (hw : WellPaired schemas) (hkeyed : Keyed M)
    (hM : IsLinked schemas M) (hS : S ∈ schemas) (hstored : M it.id = some it)
    (hschema : it.schema = S.id) :
    Keyed (without (putAll M (detachments M S it)) it.id) ∧
      IsLinked schemas (without (putAll M (detachments M S it)) it.id) := by
  have hm := hw.mirrored_mates
  have hends : ∀ F ∈ S.referenceFields, ∀ g, F.corresponding? = some g →
      Mates schemas F.id g ∧ Owns schemas M it.id F.id := by
    intro F hF g hg
    obtain ⟨hF, -⟩ := Schema.mem_referenceFields.mp hF
    exact ⟨⟨S, hS, F, hF, rfl, hg⟩, it, hstored, S, hS, hschema, F, hF, rfl⟩
  have htidy : Edits.Tidy (fun _ _ => True) M it.id
      (S.referenceFields.foldl (detachField M it) []) := Edits.Tidy.nil.detachments _
  have hbefore : Linked (Mates schemas) (Owns schemas M) (fun _ => False)
      ((edges (current M [])).withRow it.id it.reference?) := by
    refine Linked.congr hm hM ?_ fun _ _ _ h => h
    intro x y f g _
    by_cases hx : x = it.id
    · subst hx
      rw [withRow_self, edges_of_some hstored]
    · rw [withRow_other hx]
      rfl
  obtain ⟨row, hrow, -, hafter⟩ := linked_detachments hm (hw.referenceFields_distinct hS) hends
    (fun _ _ => rfl) hbefore
  -- nobody holds the item any more
  have hfree : ∀ {z f g}, Mates schemas f g → Owns schemas M z f →
      ((edges (current M (S.referenceFields.foldl (detachField M it) []))).withRow it.id row) z f ≠
        some it.id := by
    intro z f g hfg hz
    refine hafter.not_held (fun h => h) hfg ?_ hz
    intro hx
    obtain ⟨F, hF, rfl⟩ := (owns_iff hw hstored hS hschema g).mp hx
    obtain ⟨hmem, hg⟩ := mem_fields_of_mates hw hS (hm.symm hfg) hF rfl
    rw [withRow_self]
    exact hrow F hmem (by rw [Field.isTwoWay, hg]; rfl)
  rw [detachments_eq, putAll_tidy hkeyed htidy]
  have howns : ∀ {z f}, Owns schemas (without (current M (S.referenceFields.foldl
      (detachField M it) [])) it.id) z f ↔ z ≠ it.id ∧ Owns schemas M z f := by
    intro z f
    by_cases hz : z = it.id
    · simp [Owns, hz]
    · rw [← owns_current_iff htidy]
      simp [Owns, hz, without_other]
  refine ⟨keyed_without (keyed_current hkeyed htidy) it.id, hafter.shrink ?_ (fun h => h) ?_⟩
  · intro x f hx
    obtain ⟨hne, hx⟩ := howns.mp hx
    exact ⟨hx, by rw [withRow_other hne, edges, edges, without_other _ hne]⟩
  · intro x y f g hfg hx hxy hy
    obtain ⟨-, hx⟩ := howns.mp hx
    refine .inl (howns.mpr ⟨?_, hy⟩)
    intro heq
    subst heq
    exact hfree hfg hx hxy

/-! ## Runs -/

/-- No repair of an admissible write fails. -/
theorem repairs_ok (hw : WellPaired schemas) {S : Schema} (hS : S ∈ schemas)
    (L : ItemId → Option Item) (it : Item) (old : Option Item) :
    ∃ followers, repairs L S (schemaOf schemas) it old = .ok followers := by
  have hmirror : ∀ F ∈ S.referenceFields, ∀ g, F.corresponding? = some g →
      ∃ m, ((schemaOf schemas F).bind fun s => s.field? g) = some m := by
    intro F hF g hg
    obtain ⟨hF, -⟩ := Schema.mem_referenceFields.mp hF
    obtain ⟨T, hT, G, hG, rfl, hinto, -, -, -⟩ := hw.mirrored S hS F hF g hg
    obtain ⟨t, ht, htT⟩ := Option.map_eq_some_iff.mp hinto
    have hsome : (schemas.find? fun s => s.id == t.2).isSome := by
      rw [List.find?_isSome]
      exact ⟨T, hT, by simp [htT]⟩
    obtain ⟨T', hT'⟩ := Option.isSome_iff_exists.mp hsome
    have hid : T'.id = t.2 := by simpa using List.find?_some hT'
    obtain rfl := hw.schema_eq (List.mem_of_find?_eq_some hT') hT (hid.trans htT)
    exact ⟨G, by rw [schemaOf, ht, Option.bind_some, hT', Option.bind_some, hw.field?_of_mem hT hG]⟩
  have hsucceeds : ∃ edits,
      S.referenceFields.foldlM (repairField L (schemaOf schemas) it old) [] = .ok edits :=
    repairs_succeed hmirror []
  obtain ⟨edits, hedits⟩ := hsucceeds
  exact ⟨edits.map Prod.snd, by rw [repairs, hedits]; rfl⟩

/-- One step keeps the map consistent. -/
theorem consistent_step (hw : WellPaired schemas) (hkeyed : Keyed M)
    (hM : Consistent schemas M) (h : Step schemas M M') : Keyed M' ∧ Consistent schemas M' := by
  have hlinked := isLinked_of_consistent hw hM
  cases h with
  | write hS hwritten hrepairs =>
    obtain ⟨hkeyed', hM'⟩ := isLinked_write hw hkeyed hlinked hS hwritten hrepairs
    exact ⟨hkeyed', consistent_of_isLinked hw hM'⟩
  | delete hS hstored hschema =>
    obtain ⟨hkeyed', hM'⟩ := isLinked_delete hw hkeyed hlinked hS hstored hschema
    exact ⟨hkeyed', consistent_of_isLinked hw hM'⟩

/-- **Every run of writes and removals keeps the map consistent**, and no write
of the run fails. -/
theorem consistent_run (hw : WellPaired schemas) (hkeyed : Keyed M) (hM : Consistent schemas M)
    (h : Relation.ReflTransGen (Step schemas) M M') :
    Consistent schemas M' ∧ ∀ S ∈ schemas, ∀ old it, Written M' S old it →
      ∃ followers, repairs (put M' it) S (schemaOf schemas) it old = .ok followers ∧
        Consistent schemas (putAll (put M' it) followers) := by
  have hM' : Keyed M' ∧ Consistent schemas M' := by
    induction h with
    | refl => exact ⟨hkeyed, hM⟩
    | tail _ hstep ih => exact consistent_step hw ih.1 ih.2 hstep
  refine ⟨hM'.2, fun S hS old it hwritten => ?_⟩
  obtain ⟨followers, hrepairs⟩ := repairs_ok hw hS (put M' it) it old
  exact ⟨followers, hrepairs, (consistent_step hw hM'.1 hM'.2 (.write hS hwritten hrepairs)).2⟩

section Couple

/-- People with a mentor and a pupil each, who are people themselves. -/
def people : Schema :=
  { Schema.empty ⟨"people"⟩ ⟨"project"⟩ ⟨"workspace"⟩ with
    fields := [
      .named ⟨"mentor"⟩ "mentor" (.reference ⟨"person"⟩ ⟨"people"⟩ (some ⟨"pupil"⟩)),
      .named ⟨"pupil"⟩ "pupil" (.reference ⟨"person"⟩ ⟨"people"⟩ (some ⟨"mentor"⟩))] }

/-- A person of some id, without mentor or pupil. -/
def person (id : ItemId) : Item :=
  { id, project := ⟨"project"⟩, model := ⟨"person"⟩, schema := ⟨"people"⟩, thread := ⟨"thread"⟩,
    fields := [], metadataItem := none, metadataOf := none, createdBy := .user ⟨"user"⟩,
    updatedBy := none, createdAt := ⟨0, 0⟩ }

/-- A reference to a person. -/
def toPerson (field : FieldId) (id : ItemId) : ItemField :=
  ⟨field, field.text, .single (.reference id), none⟩

/-- Two people are written, the second one as pupil of the first. -/
theorem consistent_couple :
    ∃ M, Relation.ReflTransGen (Step [people]) (fun _ => none) M ∧ Consistent [people] M ∧
      edges M ⟨"ann"⟩ ⟨"pupil"⟩ = some ⟨"bob"⟩ ∧ edges M ⟨"bob"⟩ ⟨"mentor"⟩ = some ⟨"ann"⟩ := by
  have hw : WellPaired [people] := by
    refine ⟨by decide, by decide, ?_, ?_⟩
    · intro S hS T hT _ _ _ _ _
      rw [List.mem_singleton.mp hS, List.mem_singleton.mp hT]
    · decide
  have hann : Written (fun _ => none) people none ((person ⟨"ann"⟩).update []) :=
    .new rfl rfl rfl (by simp [Admissible])
  have hfirst := Step.write (List.mem_singleton_self people) hann rfl
  have hbob : Written (putAll (put (fun _ => none) ((person ⟨"ann"⟩).update [])) []) people none
      ((person ⟨"bob"⟩).update [toPerson ⟨"mentor"⟩ ⟨"ann"⟩]) := by
    have hinto : ∀ F ∈ people.fields, F.into? = some people.id := by decide
    refine .new rfl rfl rfl fun v hv F hF _ _ => .inr ?_
    rw [List.mem_singleton.mp hv]
    exact ⟨⟨"ann"⟩, person ⟨"ann"⟩, rfl, by decide, rfl, hinto F hF⟩
  have hsecond := Step.write (List.mem_singleton_self people) hbob rfl
  have hrun := (Relation.ReflTransGen.single hfirst).tail hsecond
  have hkeyed : Keyed fun _ => none := by
    intro x it h
    cases h
  have hempty : Consistent [people] fun _ => none := by
    intro x it h
    cases h
  exact ⟨_, hrun, (consistent_run hw hkeyed hempty hrun).1, rfl, rfl⟩

end Couple

end ContentStore.Pairing
