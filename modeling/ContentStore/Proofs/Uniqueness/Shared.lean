import ContentStore.Proofs.Pairing.Losses
import ContentStore.Proofs.Uniqueness.Lookups

/-!
# Values of unique fields that items share

A value comes into a stored item from the input, which is checked, from the
repair of a pair, which is exclusive, or as a default.  Defaults are filled in
before the check when an item is created.  When it is updated they are filled in
afterwards, so they escape it; at top level there are none left by then, but the
instances of groups may be new.  So what two items share in a unique field is the
default of a field of a group, which an update gave to one of them while the other
had it (`Store.distinct_of_run`).
-/

namespace ContentStore

open Tables Write

namespace Tables

/-- The schema belongs to a group and the values are the default of its field. -/
def GroupDefault (t : Tables) (S : Schema) (d : Field) (vs : Values) : Prop :=
  (∃ G ∈ t.groups, G.schema = S.id) ∧ d.default = some vs

instance {t : Tables} {S : Schema} {d : Field} {vs : Values} : Decidable (t.GroupDefault S d vs) :=
  inferInstanceAs (Decidable ((∃ G ∈ t.groups, G.schema = S.id) ∧ d.default = some vs))

/-- From `t` to `u` the stored item `x` comes to hold the values, which `y` holds
already. -/
def Doubles (t u : Tables) (m : ModelId) (f : FieldId) (vs : Values) (x y : ItemId) : Prop :=
  latestItem t x ≠ none ∧ ¬ t.Holding m f vs x ∧ u.Holding m f vs x ∧ t.Holding m f vs y

/-- What two items of one model hold after a change, in a unique field which is not
paired, they held before, or it is the default of a field of a group and one of
them came to hold it. -/
def OnlyDefaultsDoubled (t u : Tables) : Prop :=
  ∀ S ∈ t.schemas, ∀ d ∈ S.fields, d.unique = true → d.corresponding? = none →
    ∀ m vs, vs.isEmpty = false → ∀ x y, x ≠ y → u.Holding m d.id vs x → u.Holding m d.id vs y →
      t.Holding m d.id vs x ∧ t.Holding m d.id vs y ∨
      t.GroupDefault S d vs ∧ (Doubles t u m d.id vs x y ∨ Doubles t u m d.id vs y x)

variable {n k : Nat} {t u : Tables}

/-- An item that trails another has no new values in fields that are not paired,
save empty ones. -/
theorem Holding.of_trails (hw : Wired n t) {S : Schema} (hS : S ∈ t.schemas) {d : Field}
    (hd : d ∈ S.fields) (hone : d.corresponding? = none) {m : ModelId} {vs : Values} {z : ItemId}
    (htrails : ∀ Z, latestItem u z = some Z →
      ∃ Y, latestItem t z = some Y ∧ Y.Trails (t.Pairs Y.model) Z)
    (hne : vs.isEmpty = false) (h : u.Holding m d.id vs z) : t.Holding m d.id vs z := by
  obtain ⟨Z, hZ, rfl, e, he, hid, rfl⟩ := h
  obtain ⟨Y, hY, hYZ⟩ := htrails Z hZ
  refine ⟨Y, hY, hYZ.model.symm, e, ?_, hid, rfl⟩
  rcases hYZ.kept e he with he | ⟨-, ⟨s, far, -, hpaired⟩, -⟩ | ⟨-, -, hvalue⟩
  · exact he
  · rw [hid] at hpaired
    have hfar := (hw.tie_eq (Wired.declares_of_mem hS hd) hpaired).2
    rw [(Field.farEnd?_eq_some.mp hfar).1] at hone
    cases hone
  · rw [Values.isEmpty, hvalue] at hne
    cases hne

theorem GroupDefault.congr (hcatalog : SameCatalog t u) {S : Schema} {d : Field} {vs : Values}
    (h : t.GroupDefault S d vs) : u.GroupDefault S d vs := by
  rw [GroupDefault, hcatalog.groups]
  exact h

/-- Where only trailing items are left, nothing new is shared. -/
theorem onlyDefaultsDoubled_of_trails (hw : Wired n t) (htrails : ∀ z Z, latestItem u z = some Z →
    ∃ Y, latestItem t z = some Y ∧ Y.Trails (t.Pairs Y.model) Z) : OnlyDefaultsDoubled t u := by
  intro S hS d hd _ hone m vs hne x y _ hx hy
  exact .inl ⟨hx.of_trails hw hS hd hone (htrails x) hne,
    hy.of_trails hw hS hd hone (htrails y) hne⟩

end Tables

namespace Write.Snapshot

variable {n k : Nat} {t u : Tables} {p : Package} {old : Option Item} {it : Item}
  {values : List ItemField} {o : Operator}

/-- A field of a value of the package is found by the package. -/
theorem field?_of_stands (hw : Wired n t) (h : Snapshot n t p old it values) {e : ItemField}
    (he : Embedding.Stands p Embedding.Fits e) {S : Schema} (hS : S ∈ t.schemas) {d : Field}
    (hd : d ∈ S.fields) (hid : e.field = d.id) : p.field? e.field = some d := by
  obtain ⟨hT, -⟩ := prepared_of_stands hw h.packed he hS hd hid
  rw [hid, h.packed.field?_eq hw hT hd]

/-- A default that was filled in after the check is one of a group. -/
theorem groupDefault_of_filled (hw : Wired n t) (h : Snapshot n t p old it values) {e : ItemField}
    (hinner : e.group.isSome) (helements : e.value.elements ≠ [])
    (hstands : Embedding.Stands p (Embedding.FitsAs .null) e) {S : Schema} (hS : S ∈ t.schemas)
    {d : Field} (hd : d ∈ S.fields) (hid : e.field = d.id) : t.GroupDefault S d e.value := by
  obtain ⟨g, hg, F, hF, hFe, hprepare⟩ := hstands.inner hinner
  obtain ⟨hG, hT, hGT⟩ := h.packed.groups g hg
  obtain ⟨rfl, rfl⟩ := hw.wellPaired.field_eq hT hS hF hd (hFe.trans hid)
  refine ⟨⟨g.1, hG, hGT.symm⟩, ?_⟩
  have hnull := Field.prepare_null hprepare
  cases hdefault : F.default with
  | none =>
    rw [hdefault] at hnull
    rw [hnull] at helements
    exact (helements rfl).elim
  | some vs =>
    rw [hdefault] at hnull
    rw [hnull]
    rfl

/-- **What a written item comes to share** with another stored one is the default
of a field of a group, and the item was stored before. -/
theorem groupDefault (hs : Sound n t) (hw : Wired n t) (h : Snapshot n t p old it values)
    {S : Schema} (hS : S ∈ t.schemas) {d : Field} (hd : d ∈ S.fields) (hunique : d.unique = true)
    {e : ItemField} (he : e ∈ it.fields) (hid : e.field = d.id) (hne : e.value.isEmpty = false)
    (hcomes : ¬ t.Holding it.model d.id e.value it.id)
    {y : ItemId} (hy : y ≠ it.id) (hheld : t.Holding it.model d.id e.value y) :
    latestItem t it.id ≠ none ∧ t.GroupDefault S d e.value := by
  have hbefore : ∀ b, old = some b → ∀ c ∈ b.fields, c.field = e.field → c.value ≠ e.value := by
    intro b hb c hc hce hcv
    have hmodel : b.model = it.model := (congrArg Origin.model (h.origin b hb)).symm
    exact hcomes ⟨b, h.stored.trans hb, hmodel, c, hc, hce.trans hid, hcv⟩
  rcases h.mem e he with hnew | ⟨b, hb, hold⟩ | ⟨hold, hinner, helements, hstands⟩
  · -- a value of the input was checked
    have hfield := h.field?_of_stands hw (h.stands e hnew) hS hd hid
    cases Uniqueness.check_eq_ok_iff.mp h.checked.unique e hnew with
    | unchanged hunchanged =>
      obtain ⟨b, hb, c, hc, hce, hcv⟩ := Uniqueness.exists_of_unchanged hunchanged
      exact (hbefore b hb c hc hce hcv).elim
    | plain hd' hplain =>
      obtain rfl := Option.some.inj (hfield.symm.trans hd')
      exact nomatch hunique.symm.trans hplain
    | empty _ hempty => exact nomatch hne.symm.trans hempty
    | unheld _ hnone =>
      rw [← h.model, ← hid] at hheld
      exact (hs.latestOwned.itemWithValue?_eq_none_iff.mp hnone y hy hheld).elim
  · exact (hbefore b hb e hold rfl rfl).elim
  · refine ⟨?_, h.groupDefault_of_filled hw hinner helements hstands hS hd hid⟩
    rw [h.stored]
    exact Option.isSome_iff_ne_none.mp hold

/-- **A write lets items share nothing new**, save defaults of groups. -/
theorem onlyDefaultsDoubled (hs : Sound n t) (hw : Wired n t) (h : Snapshot n t p old it values)
    (hputs : Puts o p old it n t k u) : OnlyDefaultsDoubled t u := by
  obtain ⟨hself, htrails, -⟩ := puts_after hs hw h hputs
  intro S hS d hd hunique hone m vs hne x y hxy hx hy
  have hkept : ∀ {z}, z ≠ it.id → u.Holding m d.id vs z → t.Holding m d.id vs z :=
    fun hz hheld => hheld.of_trails hw hS hd hone (htrails _ hz) hne
  -- the written item against another one
  have hwritten : ∀ {z}, z ≠ it.id → u.Holding m d.id vs it.id → u.Holding m d.id vs z →
      t.Holding m d.id vs it.id ∨ t.GroupDefault S d vs ∧ Doubles t u m d.id vs it.id z := by
    intro z hz hit hheld
    by_cases hbefore : t.Holding m d.id vs it.id
    · exact .inl hbefore
    · have hafter := hit
      obtain ⟨it', hit', rfl, e, he, hid, rfl⟩ := hit
      obtain rfl := Option.some.inj (hself.symm.trans hit')
      obtain ⟨hstored, hdefault⟩ :=
        h.groupDefault hs hw hS hd hunique he hid hne hbefore hz (hkept hz hheld)
      exact .inr ⟨hdefault, hstored, hbefore, hafter, hkept hz hheld⟩
  by_cases hxit : x = it.id
  · subst hxit
    rcases hwritten hxy.symm hx hy with hbefore | ⟨hdefault, hdoubles⟩
    · exact .inl ⟨hbefore, hkept hxy.symm hy⟩
    · exact .inr ⟨hdefault, .inl hdoubles⟩
  · by_cases hyit : y = it.id
    · subst hyit
      rcases hwritten hxy hy hx with hbefore | ⟨hdefault, hdoubles⟩
      · exact .inl ⟨hkept hxy hx, hbefore⟩
      · exact .inr ⟨hdefault, .inr hdoubles⟩
    · exact .inl ⟨hkept hxit hx, hkept hyit hy⟩

end Write.Snapshot

namespace Store

variable {s t : Store}

/-- **A step about items lets items share nothing new**, save defaults of groups. -/
theorem onlyDefaultsDoubled_of_step (hs : s.Stocked) (h : Step Call.OnItems s t) :
    OnlyDefaultsDoubled s.tables t.tables := by
  have hwired := hs.sane.wired
  cases touches_of_step hs h with
  | rests h =>
    refine onlyDefaultsDoubled_of_trails hwired fun z Z hZ => ?_
    rw [h.1] at hZ
    exact ⟨Z, hZ, .refl Z⟩
  | puts h hputs => exact h.onlyDefaultsDoubled hs.sane.sound hwired hputs
  | removes _ _ _ h =>
    refine onlyDefaultsDoubled_of_trails hwired fun z Z hZ => ?_
    obtain ⟨-, -, Y, hY, htrails⟩ := (removes_after hs.sane.sound h).1 z Z hZ
    exact ⟨Y, hY, htrails.mono fun _ hfalse => hfalse.elim⟩
  | publishes h =>
    refine onlyDefaultsDoubled_of_trails hwired fun z Z hZ => ?_
    rw [h.latestItem hs.sane.sound] at hZ
    exact ⟨Z, hZ, .refl Z⟩

/-- In a run from `s` to `t` a call gave the stored item `x` values in a field that
`y` held already. -/
def DoubledWhileHeld (s t : Store) (m : ModelId) (f : FieldId) (vs : Values) (x y : ItemId) :
    Prop :=
  ∃ u v, Run Call.OnItems s u ∧ Step Call.OnItems u v ∧ Run Call.OnItems v t ∧
    Doubles u.tables v.tables m f vs x y

theorem DoubledWhileHeld.tail {m : ModelId} {f : FieldId} {vs : Values} {x y : ItemId} {w : Store}
    (h : DoubledWhileHeld s t m f vs x y) (hstep : Step Call.OnItems t w) :
    DoubledWhileHeld s w m f vs x y := by
  obtain ⟨u, v, hsu, huv, hvt, hdoubles⟩ := h
  exact ⟨u, v, hsu, huv, hvt.tail hstep, hdoubles⟩

/-- **What two items share** in a unique field which is not paired is the default of
a field of a group, which one got while the other had it. -/
theorem doubled_of_run (hs : s.Sane) (hempty : s.Unstocked) (h : Run Call.OnItems s t) :
    ∀ S ∈ t.tables.schemas, ∀ d ∈ S.fields, d.unique = true → d.corresponding? = none →
      ∀ m vs, vs.isEmpty = false → ∀ x y, x ≠ y →
        t.tables.Holding m d.id vs x → t.tables.Holding m d.id vs y →
        t.tables.GroupDefault S d vs ∧
          (DoubledWhileHeld s t m d.id vs x y ∨ DoubledWhileHeld s t m d.id vs y x) := by
  have hstocked := hempty.stocked hs
  induction h with
  | refl =>
    intro S _ d _ _ _ m vs _ x y _ hex
    obtain ⟨it, hit, -⟩ := hex
    exact nomatch (hempty.latestItem hs x).symm.trans hit
  | @tail v w hrun hstep ih =>
    have hv := stocked_of_run hstocked hrun
    obtain ⟨hcatalog, -⟩ := sameCatalog_of_step hv.sane hstep
    intro S hS d hd hunique hone m vs hne x y hxy hx hy
    rw [hcatalog.schemas] at hS
    rcases onlyDefaultsDoubled_of_step hv hstep S hS d hd hunique hone m vs hne x y hxy hx hy with
      ⟨hx, hy⟩ | ⟨hdefault, hdoubles⟩
    · obtain ⟨hdefault, hdoubled⟩ := ih S hS d hd hunique hone m vs hne x y hxy hx hy
      exact ⟨hdefault.congr hcatalog, hdoubled.imp (·.tail hstep) (·.tail hstep)⟩
    · exact ⟨hdefault.congr hcatalog,
        hdoubles.imp (⟨v, w, hrun, hstep, .refl, ·⟩) (⟨v, w, hrun, hstep, .refl, ·⟩)⟩

/-- A paired field that is not empty holds an item, at top level. -/
theorem edge_of_value {t : Tables} {n : Nat} (hw : Wired n t) {x : ItemId} {X : Item}
    (hX : latestItem t x = some X) (hsuits : t.Suits X) {s : SchemaId} {f : FieldId}
    {far : FarEnd} (hd : t.Declares s f (some far)) {i : Option InstanceId} {e : ItemField}
    (he : valueAt? X.fields ⟨f, i⟩ = some e) (hne : e.value.isEmpty = false) :
    t.Paired x f ∧ ∃ y, Pairing.edges (latestItem t) x f = some y ∧
      e.value.first? = some (.reference y) := by
  have hslot := slot_of_valueAt? he
  obtain rfl : e.field = f := congrArg Slot.field hslot
  obtain ⟨htop, hpairs⟩ := hsuits.pairs hw (mem_of_valueAt? he) hd
  obtain rfl : i = none := (congrArg Slot.owner hslot).symm.trans htop
  refine ⟨⟨X, hX, hpairs⟩, ?_⟩
  cases hfirst : e.value.first? with
  | none =>
    rw [Values.isEmpty, List.head?_eq_none_iff.mp hfirst] at hne
    cases hne
  | some v =>
    have hmem : v ∈ e.value.elements := List.mem_of_mem_head? hfirst
    obtain ⟨y, rfl⟩ := hsuits.references e (mem_of_valueAt? he) s far hd v hmem
    refine ⟨y, ?_, rfl⟩
    rw [Pairing.edges_of_some hX, Item.reference?, Item.field?, he, Option.bind_some, hfirst]
    rfl

/-- Only one item holds a value that is not empty in a paired field. -/
theorem eq_of_paired_value (hs : s.Sane) (hempty : s.Unstocked) (h : Run Call.OnItems s t)
    {x y : ItemId} {X Y : Item} (hX : latestItem t.tables x = some X)
    (hY : latestItem t.tables y = some Y) {S : Schema} (hS : S ∈ t.tables.schemas) {d : Field}
    (hd : d ∈ S.fields) {g : FieldId} (hg : d.corresponding? = some g) {i j : Option InstanceId}
    {e e' : ItemField} (he : valueAt? X.fields ⟨d.id, i⟩ = some e)
    (he' : valueAt? Y.fields ⟨d.id, j⟩ = some e') (hne : e.value.isEmpty = false)
    (hvalue : e.value = e'.value) : x = y := by
  have ht := stocked_of_run (hempty.stocked hs) h
  obtain ⟨far, hfar, -⟩ := Field.farEnd?_of_corresponding? hg
  have hdeclares := Wired.declares_of_mem hS hd
  rw [hfar] at hdeclares
  obtain ⟨hpx, z, hxz, hz⟩ := edge_of_value ht.sane.wired hX (ht.suits x X hX) hdeclares he hne
  obtain ⟨hpy, z', hyz, hz'⟩ :=
    edge_of_value ht.sane.wired hY (ht.suits y Y hY) hdeclares he' (hvalue ▸ hne)
  rw [hvalue, hz'] at hz
  obtain rfl : z' = z := by simpa using hz
  have hmates : Pairing.Mates t.tables.schemas d.id g := ⟨S, hS, d, hd, rfl, hg⟩
  exact (partnered_of_run hs hempty h).1.linked.exclusive hmates hpx hpy hxz hyz

/-- **Two items of one model hold different values in a unique field**, in whatever
slots, unless these are the default of a field of a group and a call gave it to one
of them while the other held it. -/
theorem distinct_of_run {config : Config} {clock : Time.Clock} {supply : Supply}
    {emitter : Emitter} (hstart : Run Call.Any (blank config clock supply emitter) s)
    (hempty : s.Unstocked) (h : Run Call.OnItems s t) {x y : ItemId} {X Y : Item}
    (hX : latestItem t.tables x = some X) (hY : latestItem t.tables y = some Y) (hxy : x ≠ y)
    (hmodel : X.model = Y.model) {S : Schema} (hS : S ∈ t.tables.schemas) {d : Field}
    (hd : d ∈ S.fields) (hunique : d.unique = true) {i j : Option InstanceId} {e e' : ItemField}
    (he : valueAt? X.fields ⟨d.id, i⟩ = some e) (he' : valueAt? Y.fields ⟨d.id, j⟩ = some e')
    (hne : e.value.isEmpty = false) :
    e.value ≠ e'.value ∨ t.tables.GroupDefault S d e.value ∧
      (DoubledWhileHeld s t X.model d.id e.value x y ∨
        DoubledWhileHeld s t X.model d.id e.value y x) := by
  refine or_iff_not_imp_left.mpr fun hvalue => ?_
  rw [not_not] at hvalue
  have hs := sane_of_run hstart (sane_blank config clock supply emitter)
  cases hcorresponding : d.corresponding? with
  | none =>
    exact doubled_of_run hs hempty h S hS d hd hunique hcorresponding X.model e.value hne x y hxy
      ⟨X, hX, rfl, e, mem_of_valueAt? he, congrArg Slot.field (slot_of_valueAt? he), rfl⟩
      ⟨Y, hY, hmodel.symm, e', mem_of_valueAt? he', congrArg Slot.field (slot_of_valueAt? he'),
        hvalue.symm⟩
  | some g =>
    exact (hxy (eq_of_paired_value hs hempty h hX hY hS hd hcorresponding he he' hne hvalue)).elim

section Library

/-- Books with a title and copies.  A copy is a group whose only field has a
default.  Titles and the fields of copies are unique. -/
def library : List Call := [
  .createGroup (.ofKey ⟨"project"⟩ ⟨"library"⟩ "copy"),
  .createField { NewField.ofKey (.ofSerial 0) "shelf" (.text none) with
    unique := true, default := some (.string "new") },
  .createModel (.ofKey ⟨"project"⟩ ⟨"library"⟩ "book"),
  .createField { NewField.ofKey (.ofSerial 4) "title" (.text none) with unique := true },
  .createField { NewField.ofKey (.ofSerial 4) "copies" (.group (.ofSerial 1)) with
    multiple := true }]

/-- Two books, the first one with a copy. -/
def twoBooks : List Call := [
  .createItem ⟨.ofSerial 5, [.byKey "title" (.string "one"),
    .byKey "copies" (.array [.string "first"])], none⟩,
  .createItem ⟨.ofSerial 5, [.byKey "title" (.string "two")], none⟩]

/-- The other book gets a copy, too. -/
def secondCopy : Call :=
  .updateItem ⟨.ofSerial 13, none, [.byKey "copies" (.array [.string "second"])], none⟩

/-- The library without books. -/
def emptyLibrary : Store :=
  Call.afterAll (.maintainer ⟨"library"⟩) library (blank .standard ⟨⟨0, 0⟩, 1⟩ ⟨0⟩ .silent)

/-- The library after some calls. -/
def libraryAfter (cs : List Call) : Store :=
  Call.afterAll (.maintainer ⟨"library"⟩) cs emptyLibrary

theorem run_libraryAfter {cs : List Call} (h : ∀ c ∈ cs, c.OfItems) :
    Run Call.OnItems emptyLibrary (libraryAfter cs) := Call.run_afterAll (fun _ => h) _

/-- What a book holds as its title. -/
def titleOf (t : Tables) (x : ItemId) : Option ItemField :=
  (latestItem t x).bind fun it => valueAt? it.fields ⟨.ofSerial 6, none⟩

theorem exists_of_titleOf {t : Tables} {x : ItemId} {e : ItemField} (h : titleOf t x = some e) :
    ∃ it, latestItem t x = some it ∧ valueAt? it.fields ⟨.ofSerial 6, none⟩ = some e :=
  Option.bind_eq_some_iff.mp h

/-- Titles of the two books differ. -/
theorem distinct_titles : ∃ t e e', Run Call.OnItems emptyLibrary t ∧
    titleOf t.tables (.ofSerial 10) = some e ∧ titleOf t.tables (.ofSerial 13) = some e' ∧
      e.value ≠ e'.value := by
  have hstart : Run Call.Any (blank .standard ⟨⟨0, 0⟩, 1⟩ ⟨0⟩ .silent) emptyLibrary :=
    Call.run_afterAll (fun _ _ _ => trivial) _
  have hempty : emptyLibrary.tables.versions = [] := by decide +kernel
  have hrun : Run Call.OnItems emptyLibrary (libraryAfter twoBooks) := run_libraryAfter (by decide)
  generalize ht : libraryAfter twoBooks = t at hrun
  have hone : titleOf t.tables (.ofSerial 10) =
      some ⟨.ofSerial 6, "title", .single (.text "one"), none⟩ := by
    rw [← ht]
    decide +kernel
  have htwo : titleOf t.tables (.ofSerial 13) =
      some ⟨.ofSerial 6, "title", .single (.text "two"), none⟩ := by
    rw [← ht]
    decide +kernel
  have hmodels : (latestItem t.tables (.ofSerial 10)).map Item.model =
      (latestItem t.tables (.ofSerial 13)).map Item.model := by
    rw [← ht]
    decide +kernel
  have htitle : ∃ S ∈ t.tables.schemas, ∃ d ∈ S.fields, d.id = .ofSerial 6 ∧ d.unique = true ∧
      ¬ t.tables.GroupDefault S d (.single (.text "one")) := by
    rw [← ht]
    decide +kernel
  obtain ⟨X, hX, he⟩ := exists_of_titleOf hone
  obtain ⟨Y, hY, he'⟩ := exists_of_titleOf htwo
  obtain ⟨S, hS, d, hd, hid, hunique, hdefault⟩ := htitle
  rw [hX, hY, Option.map_some, Option.map_some] at hmodels
  refine ⟨t, _, _, hrun, hone, htwo, ?_⟩
  obtain hne | ⟨hgroup, -⟩ := distinct_of_run hstart hempty hrun hX hY (by decide)
    (Option.some.inj hmodels) hS hd hunique (by rw [hid]; exact he) (by rw [hid]; exact he')
    (by decide)
  · exact hne
  · exact (hdefault hgroup).elim

/-- **A default may be shared.**  The copy that the other book gets is filled with
the same default, after the check. -/
theorem default_shared : ∃ s t,
    Run Call.OnCatalog (blank .standard ⟨⟨0, 0⟩, 1⟩ ⟨0⟩ .silent) s ∧ Run Call.OnItems s t ∧
      ∃ S ∈ t.tables.schemas, ∃ d ∈ S.fields, d.unique = true ∧ ∃ m vs x y,
        vs.isEmpty = false ∧ x ≠ y ∧ t.tables.Holding m d.id vs x ∧
        t.tables.Holding m d.id vs y := by
  have hcalls : ∀ c ∈ library, ¬ c.OfItems := by decide
  have hshared : ∃ S ∈ (libraryAfter (twoBooks ++ [secondCopy])).tables.schemas, ∃ d ∈ S.fields,
      d.unique = true ∧
      (libraryAfter (twoBooks ++ [secondCopy])).tables.Holding (.ofSerial 5) d.id
        (.single (.text "new")) (.ofSerial 10) ∧
      (libraryAfter (twoBooks ++ [secondCopy])).tables.Holding (.ofSerial 5) d.id
        (.single (.text "new")) (.ofSerial 13) := by
    decide +kernel
  obtain ⟨S, hS, d, hd, hunique, hfirst, hsecond⟩ := hshared
  exact ⟨emptyLibrary, _, Call.run_afterAll (fun _ => hcalls) _, run_libraryAfter (by decide), S,
    hS, d, hd, hunique, _, _, _, _, by decide, by decide, hfirst, hsecond⟩

end Library

end Store

end ContentStore
