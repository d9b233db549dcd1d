import ContentStore.Proofs.Embedding.Governing
import ContentStore.Proofs.Required

/-!
# Items that conform

An update reads its input against the values that an item has, merges the two and
completes the outcome.  Values come from three sides, then: from the input and from
defaults they have been checked when they were prepared, and from the item they are
as good as they were (`valid_of_completed`).  Completing visits every instance that
is listed in the outcome, with the schema of the one group whose fields list it
(`visited_of_governs`), so that required values are there at any depth.
-/

namespace ContentStore.Embedding

variable {p : Package} {values : List ItemField}

/-- Every value may stand in its field, if the package has the field. -/
def AllValid (p : Package) (values : List ItemField) : Prop :=
  ∀ e ∈ values, ∀ F ∈ p.field? e.field, F.check e.value = .ok ()

/-- Every value may stand in its field, and whatever the values follow has its
required ones. -/
structure Conforms (p : Package) (values : List ItemField) : Prop where
  valid : AllValid p values
  required : ∀ S owner, Governs p (Lists values) S owner → Satisfied S owner values

/-- Each instance is listed by fields of one group only. -/
def ListedByOneGroup (p : Package) (values : List ItemField) : Prop :=
  ∀ e ∈ values, ∀ e' ∈ values, ∀ i ∈ e.value.groups, i ∈ e'.value.groups →
    ∀ F ∈ p.field? e.field, ∀ F' ∈ p.field? e'.field, F.group? = F'.group?

instance (p : Package) (values : List ItemField) : Decidable (ListedByOneGroup p values) :=
  inferInstanceAs (Decidable (∀ e ∈ values, ∀ e' ∈ values, ∀ i ∈ e.value.groups,
    i ∈ e'.value.groups → ∀ F ∈ p.field? e.field, ∀ F' ∈ p.field? e'.field,
      F.group? = F'.group?))

section Fields

variable (hapart : p.FieldsApart)

include hapart in
/-- The field of a value is the one whose slot it stands in. -/
theorem field?_of_valueAt? {S : Schema} {F : Field} {owner : Option InstanceId} {e : ItemField}
    (hS : S ∈ p.itemSchemas) (hF : F ∈ S.fields) (he : valueAt? values ⟨F.id, owner⟩ = some e) :
    p.field? e.field = some F := by
  have hid : e.field = F.id := congrArg Slot.field (slot_of_valueAt? he)
  rw [hid]
  exact hapart.field?_eq hS hF

include hapart in
/-- What has been prepared for a field of the package may stand in it. -/
theorem valid_of_stands {e : ItemField} (h : Stands p Fits e) :
    ∀ F ∈ p.field? e.field, F.check e.value = .ok () := by
  intro F hF
  obtain ⟨S, hS, raw, F', hF', hid, hprepare⟩ := h.exists_fits
  have hsame := hapart.field?_eq hS hF'
  rw [hid] at hsame
  obtain rfl := Option.some.inj (hsame.symm.trans hF)
  exact Field.check_of_prepare hprepare

include hapart in
/-- **Every value is valid** after an update, if the item had valid ones. -/
theorem valid_of_completed {input : List RawField} {base out : List ItemField}
    (hbase : AllValid p base) (hread : valuesOfRaw p input base = .ok values)
    (hcompleted : completed p (mergeValues base values) = .ok out) : AllValid p out := by
  obtain ⟨⟨more, rfl, hmore⟩, -⟩ := completed_eq_ok hcompleted
  intro e he
  rcases List.mem_append.mp he with he | he
  · rcases mem_mergeValues he with he | he
    · exact valid_of_stands hapart (stands_of_valuesOfRaw hread e he)
    · exact hbase e he
  · exact valid_of_stands hapart ((hmore e he).stands.mono fun _ hfits => ⟨_, hfits⟩)

variable {visited : List Visit} {seen : List InstanceId} {S : Schema} {owner : Option InstanceId}
  (hvisits : Visits p visited [] seen values)

include hapart hvisits in
/-- **Whatever the values follow has been visited**, if each instance is listed by
fields of one group. -/
theorem visited_of_governs (hone : ListedByOneGroup p values)
    (h : Governs p (Lists values) S owner) : (S, owner) ∈ visited := by
  induction h with
  | top =>
    have hroot := hvisits.root
    rwa [List.append_nil] at hroot
  | @inner S G owner F i _ hF hG hi ih =>
    have hfield : ∀ {v : Visit} {F' : Field} {e : ItemField}, v ∈ visited →
        F' ∈ v.1.groupFields → valueAt? values ⟨F'.id, v.2⟩ = some e →
        p.field? e.field = some F' := fun hv hF' he =>
      field?_of_valueAt? hapart (hvisits.visitable _ (List.mem_append_left _ hv)).mem
        (List.mem_filter.mp hF').1 he
    obtain ⟨G', hG', hvisited⟩ := visited_of_listed hvisits ih hF hi fun v hv F' hF' hlists => by
      obtain ⟨e, he, hie⟩ := hi
      obtain ⟨e', he', hie'⟩ := hlists
      exact hone e' (mem_of_valueAt? he') e (mem_of_valueAt? he) i hie' hie
        F' (hfield hv hF' he') F (hfield ih hF he)
    obtain rfl := Except.ok.inj (hG.symm.trans hG')
    exact hvisited

include hapart hvisits in
/-- A visited owner has its required values, if values are valid. -/
theorem satisfied_of_valid (hvalid : AllValid p values) (hvisited : (S, owner) ∈ visited) :
    Satisfied S owner values := by
  intro F hF hrequired
  have hS : S ∈ p.itemSchemas := (hvisits.visitable _ (List.mem_append_left _ hvisited)).mem
  obtain ⟨e, he⟩ := Option.isSome_iff_exists.mp
    (Complete.isSome (hvisits.complete _ hvisited) hF hrequired)
  have hfield := field?_of_valueAt? hapart hS hF he
  have hcheck := hvalid e (mem_of_valueAt? he) F hfield
  exact ⟨e, he, (Field.check_eq_ok hcheck).2.2 hrequired⟩

end Fields

/-- **An update keeps items conforming**, and makes a new item conform.  The fields of
the package have to differ in their ids, and no instance may be listed by fields of
two groups in the end. -/
theorem conforms_of_completed {input : List RawField} {base values out : List ItemField}
    (hapart : p.FieldsApart) (hbase : base = [] ∨ Conforms p base)
    (hread : valuesOfRaw p input base = .ok values)
    (hcompleted : completed p (mergeValues base values) = .ok out)
    (hone : ListedByOneGroup p out) : Conforms p out := by
  obtain ⟨visited, seen, hvisits⟩ := visits_of_completed hcompleted
  have hvalid := valid_of_completed hapart ?base hread hcompleted
  case base =>
    rcases hbase with rfl | hbase
    · exact fun e he => (List.not_mem_nil he).elim
    · exact hbase.valid
  refine ⟨hvalid, fun S owner h => ?_⟩
  exact satisfied_of_valid hapart hvisits hvalid (visited_of_governs hapart hvisits hone h)

/-- The book with one more chapter. -/
def secondChapter : List RawField := [
  .byKey "chapters" (.array [.string "first", .string "second"])]

/-- The new book conforms, and so it does with one more chapter, which has an opening
section by default. -/
theorem conforms_of_secondChapter : ∃ made out,
    (valuesOfRaw books chapterAndSection [] >>= fun v => completed books (mergeValues [] v)) =
      .ok made ∧
    (valuesOfRaw books secondChapter made >>= fun v => completed books (mergeValues made v)) =
      .ok out ∧
    Conforms books made ∧ Conforms books out ∧
    Lists out ⟨⟨"sections"⟩, some ⟨"second"⟩⟩ ⟨"opening"⟩ := by
  have hrun : ∃ made ∈ (valuesOfRaw books chapterAndSection [] >>=
        fun v => completed books (mergeValues [] v)).toOption,
      ∃ out ∈ (valuesOfRaw books secondChapter made >>=
        fun v => completed books (mergeValues made v)).toOption,
      ListedByOneGroup books made ∧ ListedByOneGroup books out ∧
      Lists out ⟨⟨"sections"⟩, some ⟨"second"⟩⟩ ⟨"opening"⟩ := by
    decide +kernel
  have hapart : books.FieldsApart := by decide
  obtain ⟨made, hmade, out, hout, honeMade, honeOut, hlists⟩ := hrun
  have hmade := ok_of_mem_toOption hmade
  have hout := ok_of_mem_toOption hout
  obtain ⟨first, hfirst, hfirstMade⟩ := bind_eq_ok.mp hmade
  obtain ⟨second, hsecond, hsecondOut⟩ := bind_eq_ok.mp hout
  have hconforms := conforms_of_completed hapart (.inl rfl) hfirst hfirstMade honeMade
  exact ⟨made, out, hmade, hout, hconforms,
    conforms_of_completed hapart (.inr hconforms) hsecond hsecondOut honeOut, hlists⟩

end ContentStore.Embedding
